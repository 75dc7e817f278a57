import Lumie.Drivers.ScreenAt

/-!
# Characters outside the screen

`kprint_at` clips unless a character is stray.  The 128 words a stray character
is stored to are those of a cell near column or row `2 ^ 32`.  On a common
screen they lie behind the framebuffer; `kprintAt_paintsCells_iff` gives the
shapes of screen and text for which they do no harm.
-/

set_option autoImplicit false

namespace Lumie.ScreenStray

open MachineInt StoreTrace
open Lumie.Strings Lumie.Screen Lumie.ScreenAt

def firstWord (fb : Framebuffer) (col row : Int) : Nat :=
  rowMajor fb.stride (u32 (16 * row)) (u32 (8 * col))

/-- The words of a cell lie behind the framebuffer and do not wrap around to
its beginning. -/
structure BehindScreen (fb : Framebuffer) (col row : Int) : Prop where
  starts : fb.height * fb.stride ≤ firstWord fb col row % 2 ^ 62
  ends : firstWord fb col row % 2 ^ 62 + 15 * fb.stride + 8 ≤ 2 ^ 62

def textColumns (fb : Framebuffer) (str : CString) (x : Int) : Nat :=
  8 * min (x + str.bytes.length).toNat (fb.width / 8)

/-- The text stands in the last rows of a screen with rows so long that column
`2 ^ 32 - 8` of its first row, counted on through the rows below, is a column
of the text before the screen ends. -/
structure UnderText (fb : Framebuffer) (str : CString) (x y : Int) :
    Prop where
  lastRow : (fb.height : Int) = 16 * y + 16
  rows : 2 ^ 32 - 8 < 16 * fb.stride
  columns : (2 ^ 32 - 8) % fb.stride + 8 ≤ textColumns fb str x
  addresses : fb.height * fb.stride + 2 ^ 32 ≤ 2 ^ 62 + fb.stride

-- In rows of `2 ^ 32 - 8` words the left character lies under the right one.
example : UnderText ⟨8, 16, 4 * (2 ^ 32 - 8)⟩ (CString.ofString "AB") (-1) 0 :=
  ⟨by decide, by decide, by decide, by decide⟩

/-! ## The words of a cell -/

/-- Cells begin at multiples of 8 and 16, so their columns and rows are
converted to `uint32_t` without a gap. -/
theorem drawnWord_block (fb : Framebuffer) (col row : Int) {dy dx : Nat}
    (below : dy < 16) (inside : dx < 8) :
    drawnWord fb col row dy dx =
      (firstWord fb col row + dy * fb.stride + dx) % 2 ^ 62 := by
  have rows : u32 (16 * row + dy) = u32 (16 * row) + dy := by
    unfold u32
    omega
  have cols : u32 (8 * col + dx) = u32 (8 * col) + dx := by
    unfold u32
    omega
  rw [drawnWord, firstWord, rows, cols, rowMajor, rowMajor, Nat.add_mul]
  congr 1
  omega

section Screen

variable {fb : Framebuffer} {font : Font} {str : CString} {x y col : Int}

theorem wordCount (mapped : Mapped fb font) :
    fb.height * fb.stride ≤ 2 ^ 62 := by
  have words := mapped.words
  omega

theorem stride_le_words (positive : 0 < fb.height * fb.stride) :
    fb.stride ≤ fb.height * fb.stride :=
  Nat.le_mul_of_pos_left _ (Nat.pos_of_mul_pos_right positive)

theorem misses_iff (mapped : Mapped fb font)
    (positive : 0 < fb.height * fb.stride) (col row : Int) :
    (∀ dy < 16, ∀ dx < 8,
        fb.height * fb.stride ≤ drawnWord fb col row dy dx) ↔
      BehindScreen fb col row := by
  have block := @block_misses_iff (2 ^ 62) fb.stride _ 15 8
    (firstWord fb col row) (by decide) positive (stride_le_words positive)
    (wordCount mapped)
  constructor
  · intro missed
    obtain ⟨starts, ends⟩ := block.mp (fun dy below dx inside => by
      rw [← drawnWord_block fb col row (by omega) inside]
      exact missed dy (by omega) dx inside)
    exact ⟨starts, ends⟩
  · rintro ⟨starts, ends⟩ dy below dx inside
    rw [drawnWord_block fb col row below inside]
    exact block.mpr ⟨starts, ends⟩ dy (by omega) dx inside

/-- The text begins left of the screen, so its visible cells begin at the left
edge. -/
theorem inCells_iff_columns (mapped : Mapped fb font) (left : x ≤ 0)
    (word : Nat) :
    InCells fb str x y word ↔ 0 ≤ y ∧ 16 * y + 16 ≤ fb.height ∧
      16 * y ≤ (word / fb.stride : Nat) ∧
      (word / fb.stride : Nat) < 16 * y + 16 ∧
      word % fb.stride < textColumns fb str x := by
  have stride := mapped.stride
  unfold textColumns
  constructor
  · rintro ⟨i, bound, ⟨leftEdge, right, top, bottom⟩, dy, below, dx, inside,
      rfl⟩
    have inRow : (8 * (x + i) + dx).toNat < fb.stride := by omega
    rw [cellWord, rowMajor_div inRow, rowMajor_mod inRow]
    omega
  · rintro ⟨top, bottom, lower, upper, column⟩
    have whole := Nat.div_add_mod' word fb.stride
    have inside : word % fb.stride / 8 < fb.width / 8 := by omega
    refine ⟨(word % fb.stride / 8 - x).toNat, by omega,
      ⟨by omega, by omega, by omega, by omega⟩,
      (word / fb.stride - 16 * y).toNat, by omega, word % fb.stride % 8,
      by omega, ?_⟩
    have sameRow : (16 * y + (word / fb.stride - 16 * y).toNat).toNat =
        word / fb.stride := by omega
    have sameCol : (8 * (x + (word % fb.stride / 8 - x).toNat) +
        (word % fb.stride % 8 : Nat)).toNat = word % fb.stride := by omega
    rw [cellWord, sameRow, sameCol]
    exact whole.symm

/-- What a character in this cell stores to the framebuffer goes to visible
cells of the text. -/
def Harmless (fb : Framebuffer) (str : CString) (x y col : Int) : Prop :=
  ∀ dy < 16, ∀ dx < 8,
    drawnWord fb col y dy dx < fb.height * fb.stride →
      InCells fb str x y (drawnWord fb col y dy dx)

theorem BehindScreen.harmless (mapped : Mapped fb font)
    (behind : BehindScreen fb col y) : Harmless fb str x y col := by
  intro dy below dx inside hit
  have positive : 0 < fb.height * fb.stride := by omega
  have missed := (misses_iff mapped positive col y).mpr behind dy below dx inside
  omega

theorem textColumns_le (mapped : Mapped fb font) (str : CString) (x : Int) :
    textColumns fb str x ≤ fb.stride := by
  have stride := mapped.stride
  unfold textColumns
  omega

end Screen

/-! ## Column -1 of a visible row -/

section Left

variable {fb : Framebuffer} {font : Font} {str : CString} {x : Int} {row : Nat}

theorem drawnWord_left (small : 16 * row + 16 < 2 ^ 31) {dy dx : Nat}
    (below : dy < 16) (inside : dx < 8) :
    drawnWord fb (-1) row dy dx =
      rowMajor fb.stride (16 * row + dy) (2 ^ 32 - 8 + dx) % 2 ^ 62 := by
  have rows : u32 (16 * (row : Int) + dy) = 16 * row + dy := by
    unfold u32
    omega
  have cols : u32 (8 * (-1) + dx) = 2 ^ 32 - 8 + dx := by
    unfold u32
    omega
  rw [drawnWord, rows, cols]

theorem left_carry (stride row dx : Nat) :
    rowMajor stride row (2 ^ 32 - 8 + dx) =
      rowMajor stride (row + (2 ^ 32 - 8) / stride)
        ((2 ^ 32 - 8) % stride + dx) := by
  rw [← rowMajor_carry]
  congr 1
  rw [← Nat.add_assoc, Nat.div_add_mod']

theorem left_noWrap (mapped : Mapped fb font) (left : x ≤ 0)
    (small : 16 * row + 16 < 2 ^ 31) (visible : 16 * row + 16 ≤ fb.height)
    (harmless : Harmless fb str x row (-1)) :
    (16 * row + 15) * fb.stride + 2 ^ 32 ≤ 2 ^ 62 := by
  have words := wordCount mapped
  have rows : (16 * row + 16) * fb.stride ≤ fb.height * fb.stride :=
    Nat.mul_le_mul_right _ visible
  by_contra wraps
  have last := @drawnWord_left fb row small 15 7 (by decide) (by decide)
  rw [rowMajor] at last
  rw [Nat.add_mul, Nat.mul_assoc] at rows wraps last
  generalize product : row * fb.stride = before at rows wraps last
  have value : drawnWord fb (-1) row 15 7 =
      16 * before + 15 * fb.stride + (2 ^ 32 - 8 + 7) - 2 ^ 62 := by
    rw [last]
    omega
  have cells := (inCells_iff_columns mapped left _).mp
    (harmless 15 (by decide) 7 (by decide) (by omega))
  obtain ⟨-, -, lower, -⟩ := cells
  rw [value] at lower
  have above : 16 * row ≤
      (16 * before + 15 * fb.stride + (2 ^ 32 - 8 + 7) - 2 ^ 62) /
        fb.stride := by omega
  have reached := (Nat.mul_le_mul_right fb.stride above).trans
    (Nat.div_mul_le_self _ _)
  rw [Nat.mul_assoc, product] at reached
  omega

theorem textColumns_low (inRange : InRange str x row) {i : Nat}
    (bound : i < str.bytes.length) (edge : x + i = -1) :
    textColumns fb str x < 2 ^ 31 := by
  have last := inRange.columnHigh (str.bytes.length - 1) (by omega)
  unfold textColumns
  omega

/-- With stores to the framebuffer, the text takes them up in the last rows
only. -/
theorem underText_of_harmless (mapped : Mapped fb font) (left : x ≤ 0)
    (low : textColumns fb str x < 2 ^ 31)
    (small : 16 * row + 16 < 2 ^ 31) (visible : 16 * row + 16 ≤ fb.height)
    (harmless : Harmless fb str x row (-1)) {dy dx : Nat} (below : dy < 16)
    (inside : dx < 8)
    (hit : drawnWord fb (-1) row dy dx < fb.height * fb.stride) :
    UnderText fb str x row := by
  have noWrap := left_noWrap mapped left small visible harmless
  have fills := textColumns_le mapped str x
  -- quotient and remainder of the first column
  have whole := Nat.div_add_mod' (2 ^ 32 - 8) fb.stride
  have drawn : ∀ k < 16, ∀ j < 8, drawnWord fb (-1) row k j =
      rowMajor fb.stride (16 * row + k + (2 ^ 32 - 8) / fb.stride)
        ((2 ^ 32 - 8) % fb.stride + j) := by
    intro k kBound j jBound
    have rows : (16 * row + k) * fb.stride ≤ (16 * row + 15) * fb.stride :=
      Nat.mul_le_mul_right _ (by omega)
    rw [drawnWord_left small kBound jBound, rowMajor,
      Nat.mod_eq_of_lt (by omega), ← left_carry, rowMajor]
  have inText : ∀ k < 16, ∀ j < 8,
      16 * row + k + (2 ^ 32 - 8) / fb.stride < fb.height →
      (2 ^ 32 - 8) % fb.stride + j < fb.stride →
      k + (2 ^ 32 - 8) / fb.stride < 16 ∧
        (2 ^ 32 - 8) % fb.stride + j < textColumns fb str x := by
    intro k kBound j jBound inScreen inRow
    have cells := (inCells_iff_columns mapped left _).mp
      (harmless k kBound j jBound (by
        rw [drawn k kBound j jBound]
        exact rowMajor_lt inScreen inRow))
    rw [drawn k kBound j jBound, rowMajor_div inRow, rowMajor_mod inRow] at cells
    omega
  have positive : 0 < fb.stride := by
    by_contra none
    rw [Nat.le_zero.mp (Nat.not_lt.mp none), Nat.mul_zero] at hit
    omega
  have inRow : (2 ^ 32 - 8) % fb.stride < fb.stride := Nat.mod_lt _ positive
  have reached : 16 * row + dy + (2 ^ 32 - 8) / fb.stride < fb.height := by
    rw [drawn dy below dx inside, rowMajor] at hit
    exact Nat.lt_of_mul_lt_mul_right (Nat.lt_of_add_right_lt hit)
  obtain ⟨few, firstColumn⟩ := inText 0 (by decide) 0 (by decide) (by omega)
    inRow
  have some : 0 < (2 ^ 32 - 8) / fb.stride := by
    by_contra none
    rw [Nat.le_zero.mp (Nat.not_lt.mp none)] at whole
    omega
  have last : fb.height = 16 * row + 16 := by
    by_contra more
    have next := inText (16 - (2 ^ 32 - 8) / fb.stride) (by omega) 0
      (by decide) (by omega) inRow
    omega
  refine ⟨by omega, ?_, ?_, ?_⟩
  · exact (Nat.div_lt_iff_lt_mul positive).mp (by omega)
  · by_cases fits : (2 ^ 32 - 8) % fb.stride + 8 ≤ fb.stride
    · have lastColumn := inText 0 (by decide) 7 (by decide) (by omega)
        (by omega)
      omega
    · -- a text of whole rows, in which cells do not straddle the edge
      have edge := inText 0 (by decide)
        (fb.stride - 1 - (2 ^ 32 - 8) % fb.stride) (by omega) (by omega)
        (by omega)
      have cells : 8 ∣ fb.stride := by
        have same : fb.stride = textColumns fb str x := by omega
        rw [same]
        exact Nat.dvd_mul_right 8 _
      have aligned : 8 ∣ (2 ^ 32 - 8) % fb.stride :=
        (Nat.dvd_mod_iff cells).mpr (by decide)
      omega
  · rw [last, Nat.succ_mul]
    omega

theorem UnderText.harmless (mapped : Mapped fb font) (left : x ≤ 0)
    (small : 16 * row + 16 < 2 ^ 31) (under : UnderText fb str x row) :
    Harmless fb str x row (-1) := by
  have last : fb.height = 16 * row + 16 := by
    have rows := under.lastRow
    omega
  have fills := textColumns_le mapped str x
  have columns := under.columns
  have addresses := under.addresses
  rw [last, Nat.succ_mul] at addresses
  intro dy below dx inside
  have rows : (16 * row + dy) * fb.stride ≤ (16 * row + 15) * fb.stride :=
    Nat.mul_le_mul_right _ (by omega)
  have inRow : (2 ^ 32 - 8) % fb.stride + dx < fb.stride := by omega
  have drawn : drawnWord fb (-1) row dy dx =
      rowMajor fb.stride (16 * row + dy + (2 ^ 32 - 8) / fb.stride)
        ((2 ^ 32 - 8) % fb.stride + dx) := by
    rw [drawnWord_left small below inside, rowMajor,
      Nat.mod_eq_of_lt (by omega), ← left_carry, rowMajor]
  rw [drawn, inCells_iff_columns mapped left, rowMajor_div inRow,
    rowMajor_mod inRow]
  intro hit
  rw [rowMajor] at hit
  have inScreen := Nat.lt_of_mul_lt_mul_right (Nat.lt_of_add_right_lt hit)
  generalize (2 ^ 32 - 8) / fb.stride = further at inScreen ⊢
  omega

end Left

/-! ## Clipping -/

section Text

variable {fb : Framebuffer} {font : Font} {str : CString} {fg bg : UInt32}
  {x y : Int}

theorem harmless_iff_above (mapped : Mapped fb font)
    (positive : 0 < fb.height * fb.stride) (above : y < 0) (col : Int) :
    Harmless fb str x y col ↔ BehindScreen fb col y := by
  refine ⟨?_, BehindScreen.harmless mapped⟩
  intro harmless
  refine (misses_iff mapped positive col y).mp ?_
  intro dy below dx inside
  by_contra hit
  obtain ⟨i, -, ⟨-, -, top, -⟩, -⟩ :=
    harmless dy below dx inside (Nat.not_le.mp hit)
  omega

theorem stray_column {col : Int} (stray : Stray fb col y) (top : 0 ≤ y) :
    col = -1 ∧ RowTest fb y := by
  rcases stray with left | above
  · exact left
  · exact absurd above.1 (by omega)

theorem rowTest_visible {row : Nat} (small : 16 * row + 16 < 2 ^ 31)
    (test : RowTest fb row) : 16 * row + 16 ≤ fb.height := by
  unfold RowTest u64 at test
  omega

theorem stray_harmless_iff (mapped : Mapped fb font) (inRange : InRange str x y)
    {i : Nat} (bound : i < str.bytes.length) (stray : Stray fb (x + i) y) :
    Harmless fb str x y (x + i) ↔ fb.height * fb.stride = 0 ∨
      BehindScreen fb (x + i) y ∨ UnderText fb str x y := by
  have rowHigh := inRange.rowHigh
  by_cases empty : fb.height * fb.stride = 0
  · refine ⟨fun _ => .inl empty, ?_⟩
    intro _ dy _ dx _ hit
    omega
  have positive := Nat.pos_of_ne_zero empty
  by_cases above : y < 0
  · rw [harmless_iff_above mapped positive above]
    refine ⟨fun behind => .inr (.inl behind), ?_⟩
    rintro (none | behind | under)
    · exact absurd none empty
    · exact behind
    · have rows := under.lastRow
      have none : fb.height = 0 := by omega
      rw [none, Nat.zero_mul] at empty
      exact absurd rfl empty
  obtain ⟨edge, test⟩ := stray_column stray (Int.not_lt.mp above)
  obtain ⟨row, rfl⟩ := Int.eq_ofNat_of_zero_le (Int.not_lt.mp above)
  have visible := rowTest_visible (by omega) test
  have left : x ≤ 0 := by omega
  rw [edge]
  constructor
  · intro harmless
    right
    by_cases behind : BehindScreen fb (-1) row
    · exact .inl behind
    · obtain ⟨dy, below, dx, inside, hit⟩ :
          ∃ dy < 16, ∃ dx < 8,
            drawnWord fb (-1) row dy dx < fb.height * fb.stride := by
        by_contra missed
        push Not at missed
        exact behind ((misses_iff mapped positive (-1) row).mp missed)
      exact .inr (underText_of_harmless mapped left
        (textColumns_low inRange bound edge) (by omega) visible harmless below
        inside hit)
  · rintro (none | behind | under)
    · exact absurd none empty
    · exact behind.harmless mapped
    · exact under.harmless mapped left (by omega)

/-- A stray character is stored to some word outside the visible cells: above
the screen there are none, and left of it the last row of the cell lies behind
the cells of the text row. -/
theorem stray_outside (mapped : Mapped fb font) (inRange : InRange str x y)
    {i : Nat} (bound : i < str.bytes.length) (stray : Stray fb (x + i) y) :
    ∃ dy < 16, ∃ dx < 8,
      ¬ InCells fb str x y (drawnWord fb (x + i) y dy dx) := by
  by_cases above : y < 0
  · refine ⟨0, by decide, 0, by decide, ?_⟩
    rintro ⟨_, -, ⟨-, -, top, -⟩, -⟩
    omega
  by_contra all
  push Not at all
  have rowHigh := inRange.rowHigh
  obtain ⟨edge, test⟩ := stray_column stray (Int.not_lt.mp above)
  obtain ⟨row, rfl⟩ := Int.eq_ofNat_of_zero_le (Int.not_lt.mp above)
  have visible := rowTest_visible (by omega) test
  have left : x ≤ 0 := by omega
  have low : textColumns fb str x < 2 ^ 31 :=
    textColumns_low inRange bound edge
  rw [edge] at all
  have noWrap := left_noWrap mapped left (by omega) visible
    (fun dy below dx inside _ => all dy below dx inside)
  have cells := (inCells_iff_columns mapped left _).mp
    (all 15 (by decide) 0 (by decide))
  have positive : 0 < fb.stride := by
    have fills := textColumns_le mapped str x
    omega
  rw [drawnWord_left (by omega) (by decide) (by decide), rowMajor,
    Nat.mod_eq_of_lt (by omega), ← rowMajor, left_carry,
    Nat.add_zero ((2 ^ 32 - 8) % fb.stride), rowMajor_div (Nat.mod_lt _ positive),
    rowMajor_mod (Nat.mod_lt _ positive)] at cells
  have whole := Nat.div_add_mod' (2 ^ 32 - 8) fb.stride
  generalize (2 ^ 32 - 8) / fb.stride = rows at cells whole
  have none : rows = 0 := by omega
  rw [none] at whole
  omega

/-- `kprint_at` clips exactly when no character is stray.  Where only the words
of the framebuffer count, a stray character must be stored behind the screen or
under the text. -/
theorem kprintAt_paintsCells_iff (fb : Framebuffer) (font : Font)
    (mapped : Mapped fb font) (str : CString) (fg bg : UInt32) (x y : Int)
    (inRange : InRange str x y) :
    (PaintsCells fb font str fg bg x y (fun _ => True) ↔
      ∀ i < str.bytes.length, ¬ Stray fb (x + i) y) ∧
    (PaintsCells fb font str fg bg x y (· < fb.height * fb.stride) ↔
      ∀ i < str.bytes.length, Stray fb (x + i) y →
        fb.height * fb.stride = 0 ∨ BehindScreen fb (x + i) y ∨
          UnderText fb str x y) := by
  rw [paintsCells_iff mapped inRange, paintsCells_iff mapped inRange]
  refine ⟨?_, ?_⟩
  · constructor
    · intro harmless i bound stray
      obtain ⟨dy, below, dx, inside, outside⟩ :=
        stray_outside mapped inRange bound stray
      exact outside (harmless i bound stray dy below dx inside trivial)
    · intro none i bound stray
      exact absurd stray (none i bound)
  · constructor
    · intro harmless i bound stray
      exact (stray_harmless_iff mapped inRange bound stray).mp
        (harmless i bound stray)
    · intro allowed i bound stray
      exact (stray_harmless_iff mapped inRange bound stray).mpr
        (allowed i bound stray)

end Text

theorem kprintAt_paintsCells_origin :
    PaintsCells ⟨1024, 768, 4096⟩ letterFont (CString.ofString "A") 0xFFFFFF 0
      0 0 (fun _ => True) := by
  have mapped : Mapped ⟨1024, 768, 4096⟩ letterFont :=
    ⟨by decide, by decide, by decide, rfl⟩
  have inRange : InRange (CString.ofString "A") 0 0 :=
    ⟨by decide, by decide, by decide, by decide⟩
  refine (kprintAt_paintsCells_iff _ letterFont mapped _ 0xFFFFFF 0 0 0
    inRange).1.mpr ?_
  rintro i - (⟨edge, -⟩ | ⟨edge, -⟩) <;> omega

/-- A character in column -1 is stored 16 GiB behind the first row, on a
common screen outside the framebuffer, in rows of that length into the padding
of the row.  In row -1 the addresses may wrap around into the padding of the
first row. -/
theorem kprintAt_leftEdge :
    ¬ PaintsCells ⟨1024, 768, 4096⟩ letterFont (CString.ofString "A") 0xFFFFFF
        0 (-1) 0 (fun _ => True) ∧
      ¬ PaintsCells ⟨8, 16, 2 ^ 34⟩ letterFont (CString.ofString "A") 0xFFFFFF
        0 (-1) 0 (· < 16 * 2 ^ 32) ∧
      ¬ PaintsCells ⟨8, 16, 2 ^ 32 + 16⟩ letterFont (CString.ofString "A")
        0xFFFFFF 0 0 (-1) (· < 16 * (2 ^ 30 + 4)) := by
  have inRange : InRange (CString.ofString "A") (-1) 0 :=
    ⟨by decide, by decide, by decide, by decide⟩
  have hidden : ∀ fb index,
      ¬ InCells fb (CString.ofString "A") (-1) 0 index := by
    rintro fb index ⟨i, bound, ⟨left, -⟩, -⟩
    have single : i < 1 := bound
    omega
  refine ⟨?_, ?_, ?_⟩
  · intro paints
    have mapped : Mapped ⟨1024, 768, 4096⟩ letterFont :=
      ⟨by decide, by decide, by decide, rfl⟩
    have stray : Stray ⟨1024, 768, 4096⟩ (-1 + (0 : Nat)) 0 :=
      Or.inl ⟨rfl, show u64 16 ≤ 768 by decide⟩
    exact hidden _ _ ((paintsCells_iff mapped inRange _).mp paints 0
      (by decide) stray 0 (by decide) 0 (by decide) trivial)
  · intro paints
    have mapped : Mapped ⟨8, 16, 2 ^ 34⟩ letterFont :=
      ⟨by decide, by decide, by decide, rfl⟩
    have stray : Stray ⟨8, 16, 2 ^ 34⟩ (-1 + (0 : Nat)) 0 :=
      Or.inl ⟨rfl, show u64 16 ≤ 16 by decide⟩
    exact hidden _ _ ((paintsCells_iff mapped inRange _).mp paints 0
      (by decide) stray 0 (by decide) 0 (by decide) (by decide))
  · intro paints
    have mapped : Mapped ⟨8, 16, 2 ^ 32 + 16⟩ letterFont :=
      ⟨by decide, by decide, by decide, rfl⟩
    have above : InRange (CString.ofString "A") 0 (-1) :=
      ⟨by decide, by decide, by decide, by decide⟩
    have stray : Stray ⟨8, 16, 2 ^ 32 + 16⟩ (0 + (0 : Nat)) (-1) :=
      Or.inr ⟨rfl, by decide, by decide⟩
    obtain ⟨_, -, ⟨-, -, top, -⟩, -⟩ := (paintsCells_iff mapped above _).mp
      paints 0 (by decide) stray 1 (by decide) 0 (by decide) (by decide)
    omega

end Lumie.ScreenStray
