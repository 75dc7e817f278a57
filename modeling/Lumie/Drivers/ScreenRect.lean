import Lumie.Drivers.ScreenClear
import Mathlib.Data.Int.Range

/-!
# Filled rectangles

`draw_rect` runs over its rectangle in signed coordinates and tests each pixel
against the screen.  The words it stores to are those of the visible pixels of
the rectangle, wherever the rectangle lies.
-/

set_option autoImplicit false

namespace Lumie.ScreenRect

open MachineInt StoreTrace
open Lumie.Screen Lumie.ScreenClear

/-- The two loops; neither counter leaves the range of an `int`. -/
def drawRectStores (fb : Framebuffer) (x y width height : Int)
    (color : UInt32) : List PixelStore :=
  (Int.range y (i32 (y + height))).flatMap fun i =>
    (Int.range x (i32 (x + width))).filterMap fun j =>
      if 0 ≤ j ∧ u64 j < fb.width ∧ 0 ≤ i ∧ u64 i < fb.height then
        some (pixelStore fb (u64 i) (u64 j) color)
      else none

def drawRect (fb : Framebuffer) (con : Console) (x y width height : Int)
    (color : UInt32) : Console :=
  con.write (drawRectStores fb x y width height color)

/-! ## The rectangle -/

/-- The far edges of the rectangle are `int` values. -/
structure InRange (x y width height : Int) : Prop where
  rightLow : -2 ^ 31 ≤ x + width
  rightHigh : x + width < 2 ^ 31
  bottomLow : -2 ^ 31 ≤ y + height
  bottomHigh : y + height < 2 ^ 31

def InRect (x y width height : Int) (row col : Nat) : Prop :=
  y ≤ row ∧ row < y + height ∧ x ≤ col ∧ col < x + width

instance (x y width height : Int) (row col : Nat) :
    Decidable (InRect x y width height row col) :=
  inferInstanceAs (Decidable (_ ∧ _ ∧ _ ∧ _))

structure Mapped (fb : Framebuffer) : Prop where
  pitchWords : 4 ∣ fb.pitch
  pitchLow : 4 * fb.width ≤ fb.pitch
  bytes : fb.height * fb.pitch ≤ 2 ^ 64

section Rect

variable {fb : Framebuffer} {x y width height : Int}

theorem mem_drawRectStores (range : InRange x y width height) {color : UInt32}
    {store : PixelStore} :
    store ∈ drawRectStores fb x y width height color ↔
      ∃ row < fb.height, ∃ col < fb.width, InRect x y width height row col ∧
        store = pixelStore fb row col color := by
  obtain ⟨rightLow, rightHigh, bottomLow, bottomHigh⟩ := range
  simp only [drawRectStores, List.mem_flatMap, List.mem_filterMap,
    Int.mem_range_iff, i32_of_bounds bottomLow bottomHigh,
    i32_of_bounds rightLow rightHigh]
  constructor
  · rintro ⟨i, ⟨top, bottom⟩, j, ⟨left, right⟩, kept⟩
    split at kept
    · rename_i visible
      obtain ⟨colLow, inRow, rowLow, below⟩ := visible
      cases kept
      have row : u64 i = i.toNat := u64_of_bounds rowLow (by omega)
      have col : u64 j = j.toNat := u64_of_bounds colLow (by omega)
      refine ⟨u64 i, below, u64 j, inRow, ?_, rfl⟩
      rw [row, col]
      unfold InRect
      omega
    · cases kept
  · rintro ⟨row, below, col, inRow, ⟨top, bottom, left, right⟩, rfl⟩
    have rowValue : u64 (row : Int) = row := u64_natCast (by omega)
    have colValue : u64 (col : Int) = col := u64_natCast (by omega)
    refine ⟨row, ⟨top, bottom⟩, col, ⟨left, right⟩, ?_⟩
    rw [rowValue, colValue, if_pos ⟨by omega, inRow, by omega, below⟩]

theorem Mapped.stride (mapped : Mapped fb) : fb.width ≤ fb.stride := by
  have low := mapped.pitchLow
  unfold Framebuffer.stride
  omega

theorem Mapped.index (mapped : Mapped fb) {row col : Nat}
    (below : row < fb.height) (inRow : col < fb.width) (color : UInt32) :
    (pixelStore fb row col color).index = rowMajor fb.stride row col := by
  have stride := mapped.stride
  have pitch : fb.stride * 4 ≤ fb.pitch := Nat.div_mul_le_self _ _
  have words := rowMajor_lt below (lt_of_lt_of_le inRow stride)
  have bytes : fb.height * fb.stride ≤ fb.height * fb.pitch :=
    Nat.mul_le_mul_left _ (by omega)
  exact Nat.mod_eq_of_lt (lt_of_lt_of_le words (bytes.trans mapped.bytes))

/-- `draw_rect` paints the visible pixels of the rectangle and leaves every
other word as it was. -/
theorem drawRect_paints (fb : Framebuffer) (mapped : Mapped fb) (con : Console)
    (x y width height : Int) (range : InRange x y width height)
    (color : UInt32) :
    (∀ row < fb.height, ∀ col < fb.width,
      (drawRect fb con x y width height color).pixels
          (rowMajor fb.stride row col) =
        if InRect x y width height row col then color
        else con.pixels (rowMajor fb.stride row col)) ∧
    ∀ index, ¬ VisibleWord fb index →
      (drawRect fb con x y width height color).pixels index =
        con.pixels index := by
  have stored : ∀ word ∈ (drawRectStores fb x y width height color).map
      PixelStore.word, word.2 = color ∧ ∃ row < fb.height, ∃ col < fb.width,
        InRect x y width height row col ∧ word.1 = rowMajor fb.stride row col := by
    intro word member
    obtain ⟨store, inStores, rfl⟩ := List.mem_map.mp member
    obtain ⟨row, below, col, inRow, inRect, rfl⟩ :=
      (mem_drawRectStores range).mp inStores
    exact ⟨rfl, row, below, col, inRow, inRect, mapped.index below inRow color⟩
  refine ⟨?_, ?_⟩
  · intro row below col inRow
    by_cases inRect : InRect x y width height row col
    · rw [if_pos inRect]
      apply applyStores_uniform
      · intro word member _
        exact (stored word member).1
      · exact ⟨_, List.mem_map_of_mem ((mem_drawRectStores range).mpr
          ⟨row, below, col, inRow, inRect, rfl⟩), mapped.index below inRow color⟩
    · rw [if_neg inRect]
      apply applyStores_untouched
      intro word member same
      obtain ⟨-, otherRow, -, otherCol, otherInRow, otherInRect, index⟩ :=
        stored word member
      -- two visible pixels have different words
      have stride := mapped.stride
      obtain ⟨rfl, rfl⟩ := (rowMajor_inj (lt_of_lt_of_le otherInRow stride)
        (lt_of_lt_of_le inRow stride)).mp (index.symm.trans same)
      exact inRect otherInRect
  · intro index hidden
    apply applyStores_untouched
    intro word member same
    obtain ⟨-, row, below, col, inRow, -, place⟩ := stored word member
    exact hidden ⟨row, below, col, inRow, same.symm.trans place⟩

end Rect

/-- The box of `rsod` on a screen that is too small for it. -/
theorem drawRect_paints_box :
    (drawRect ⟨800, 600, 3200⟩ (startConsole fun _ => 0xFF0000) 240 140 740 480
        0x000000).pixels (rowMajor 800 599 799) = 0x000000 :=
  (drawRect_paints ⟨800, 600, 3200⟩ ⟨by decide, by decide, by decide⟩
    (startConsole fun _ => 0xFF0000) 240 140 740 480
    ⟨by decide, by decide, by decide, by decide⟩ 0x000000).1 599 (by decide) 799
      (by decide)

end Lumie.ScreenRect
